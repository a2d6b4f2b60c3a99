import BtbuOs.Vm.Additions

namespace BtbuOs.Vm

open Machine Partition
open Sync (nthread Tid ThreadState)
open Sched (nproc Slot ProcState)

variable {l : Layout} {k bare after : Kernel} {m : Memory} {s : Slot} {t : Tid} {root : Page} {length : BitVec 32} {fits : Bool}
  {events : List Event}

/-- The part of `exec` that frees the old program. -/
def execFree (l : Layout) (k : Kernel) (s : Slot) (t : Tid) (root : Page) : Except String Kernel := do
  let k ← freethread l k s t
  let k := k.setThread s t .unused
  let m ← unmapRange l root true (k.pool s).maxPage 0 k.memory
  return { k with memory := m }

/-- A call of `exec` that returns has freed the old program and loaded the new one. -/
theorem exec_parts (rooted : (k.pool s).pagetable = some root)
    (done : exec l k s t (some length) fits = .ok (after, events)) : ∃ bare loaded, execFree l k s t root = .ok bare ∧
      binLoader l bare s length = .ok (.done, loaded) ∧ pushArgv loaded s fits = .ok () ∧
      after = loaded.setThread s t .running := by
  unfold exec at done
  rw [rooted] at done
  obtain ⟨freed, freeing, rest⟩ := bind_ok.mp done
  obtain ⟨m, unmapping, more⟩ := bind_ok.mp rest
  obtain ⟨⟨result, loaded⟩, loading, tail⟩ := bind_ok.mp more
  cases result with
  | done =>
      obtain ⟨⟨⟩, argv, final⟩ := bind_ok.mp tail
      simp only [pure, Except.pure, Except.ok.injEq, Prod.mk.injEq] at final
      refine ⟨_, loaded, ?_, loading, argv, final.1.symm⟩
      simp only [execFree, freeing, unmapping, bind, Except.bind]
      rfl
  | failed => simp at tail
  | faulted => simp at tail

/-- The page numbers that `exec` unmaps for the user. -/
def torn (p : Process) (t : Tid) (v : Nat) : Prop := v < p.maxPage ∨ v = ustackVpn p t

theorem setThread_holding (k : Kernel) (s : Slot) (t : Tid) (state : ThreadState) :
    (k.setThread s t state).holding = k.holding := by
  rw [Kernel.setThread, setProcess_holding]
  exact Holding.setRoot_self k.holding s

/-- What is left of a process when the old program has been freed. -/
structure TornDown (l : Layout) (k bare : Kernel) (s : Slot) (t : Tid) : Prop where
  kept : Kept l bare
  pool : bare.pool = (k.setThread s t .unused).pool
  holding : bare.holding = k.holding
  frame : (space bare.memory (k.holding.roots s) (trapframeVpn t)).valid = false
  gone : ∀ v, v < maxVpn → torn (k.pool s) t v → (space bare.memory (k.holding.roots s) v).valid = false
  touched : Touched k.memory bare.memory k.holding.roots s fun v => v = trapframeVpn t ∨ torn (k.pool s) t v
  free : ∀ page, page ∈ bare.memory.free ↔ page ∈ k.memory.free ∨
    ∃ v, torn (k.pool s) t v ∧ userPage (space k.memory (k.holding.roots s) v) = some page

/-- The entry of a trap frame belongs to the kernel. -/
theorem Kept.trapframe_system (kept : Kept l k) (lives : alive ((k.pool s).threads t) = true) :
    userPage (space k.memory (k.holding.roots s) (trapframeVpn t)) = none := by
  have entry : space k.memory (k.holding.roots s) (trapframeVpn t) = trapframePte l s t := kept.trapframe s t lives
  rw [entry]
  rfl

/-- The stacks and the pages of a program lie far below the trap frames. -/
theorem Kept.torn_low (kept : Kept l k) {v : Nat} (here : torn (k.pool s) t v) : v < systemVpn := by
  obtain ⟨limit, base⟩ := kept.bounds s
  have small : t.val < nthread := t.isLt
  have high : systemVpn = 2 ^ 26 - 18 := rfl
  rcases here with low | stack
  · omega
  · rw [ustackVpn] at stack
    omega

theorem execFree_torn (kept : Kept l k) (lives : alive ((k.pool s).threads t) = true)
    (rooted : (k.pool s).pagetable = some root) (done : execFree l k s t root = .ok bare) : TornDown l k bare s t := by
  obtain ⟨freed, freeing, rest⟩ := bind_ok.mp done
  obtain ⟨m, unmapping, result⟩ := bind_ok.mp rest
  simp only [pure, Except.pure, Except.ok.injEq] at result
  subst result
  have keptFreed : Kept l (freed.setThread s t .unused) := kept.freethread lives rfl freeing
  obtain ⟨_, first, second, place, frame, stack, rfl⟩ := freethread_ok freeing
  obtain rfl : root = _ := Option.some.inj (rooted.symm.trans place)
  have held : k.holding.roots s = some root := rooted
  have own : (({ k with memory := second } : Kernel).setThread s t .unused).pool s = threaded (k.pool s) t .unused :=
    setThread_self { k with memory := second } s t .unused
  have limit : ((({ k with memory := second } : Kernel).setThread s t .unused).pool s).maxPage = (k.pool s).maxPage := by
    rw [own]
    rfl
  have heldFreed : (({ k with memory := second } : Kernel).setThread s t .unused).holding.roots s = some root := by
    have same := congrArg Process.pagetable own
    exact same.trans rooted
  rw [limit] at unmapping
  have last : unmapRange l root true (k.pool s).maxPage 0 second = .ok m := unmapping
  obtain ⟨soundFirst, touchedFirst, freeFirst, cleared⟩ := unmapPage_touched held kept.sound (kept.trapframe_system lives) frame
  have changed := unmapRange_frees heldFreed _ keptFreed.sound unmapping
  have soundSecond := (unmapRange_frees held 1 soundFirst stack).sound
  have touchedSecond := unmapRange_touched held 1 soundFirst stack
  have touchedLast := unmapRange_touched held _ soundSecond last
  have high := trapframe_high t
  constructor
  · exact keptFreed.remember changed.sound changed.stays
  · rfl
  · exact setThread_holding { k with memory := second } s t .unused
  · have limit := kept.torn_low (s := s) (t := t) (Or.inr rfl)
    have bounds := (kept.bounds s).1
    have top : systemVpn = 2 ^ 26 - 18 := rfl
    have inside := trapframe_inside t
    change (space m (k.holding.roots s) (trapframeVpn t)).valid = false
    rw [touchedLast.space s inside fun both => by omega, touchedSecond.space s inside fun both => by omega]
    exact cleared
  · rintro v inside (low | rfl)
    · exact unmapRange_invalid held _ soundSecond last (Nat.zero_le v) (by omega)
    · by_cases low : ustackVpn (k.pool s) t < (k.pool s).maxPage
      · exact unmapRange_invalid held _ soundSecond last (Nat.zero_le _) (by omega)
      · have same := touchedLast.space s inside fun both => low (by omega)
        rw [same]
        exact unmapRange_invalid held 1 soundFirst stack (Nat.le_refl _) (Nat.lt_succ_self _)
  · apply (touchedFirst.mono _).trans ((touchedSecond.mono _).trans (touchedLast.mono _))
    · exact fun v same => Or.inl same
    · intro v here
      exact Or.inr (Or.inr (by omega))
    · intro v here
      exact Or.inr (Or.inl (by omega))
  · intro page
    have sameFirst (v : Nat) (here : torn (k.pool s) t v) :
        space first (k.holding.roots s) v = space k.memory (k.holding.roots s) v := by
      have low := kept.torn_low here
      exact touchedFirst.space s (by simp only [systemVpn] at low; omega) fun both => by omega
    rw [unmapRange_free held _ soundSecond last, unmapRange_free held 1 soundFirst stack, freeFirst]
    constructor
    · rintro ((free | ⟨v, low, upper, mine⟩) | ⟨v, _, upper, mine⟩)
      · exact Or.inl free
      · obtain rfl : v = ustackVpn (k.pool s) t := by omega
        rw [sameFirst _ (Or.inr rfl)] at mine
        exact Or.inr ⟨_, Or.inr rfl, mine⟩
      · have below : v < (k.pool s).maxPage := by omega
        have limit := kept.torn_low (t := t) (Or.inl below)
        by_cases stacked : v = ustackVpn (k.pool s) t
        · subst stacked
          rw [userPage_invalid (unmapRange_invalid held 1 soundFirst stack (Nat.le_refl _) (Nat.lt_succ_self _))] at mine
          simp at mine
        · rw [touchedSecond.space s (by simp only [systemVpn] at limit; omega) fun both => stacked (by omega),
            sameFirst v (Or.inl below)] at mine
          exact Or.inr ⟨v, Or.inl below, mine⟩
    · rintro (free | ⟨v, here, mine⟩)
      · exact Or.inl (Or.inl free)
      · rw [← sameFirst v here] at mine
        by_cases stacked : v = ustackVpn (k.pool s) t
        · subst stacked
          exact Or.inl (Or.inr ⟨_, Nat.le_refl _, Nat.lt_succ_self _, mine⟩)
        · have below := here.resolve_right stacked
          have limit := kept.torn_low here
          rw [← touchedSecond.space s (by simp only [systemVpn] at limit; omega) fun both => stacked (by omega)] at mine
          exact Or.inr ⟨v, Nat.zero_le v, by omega, mine⟩

/-- The flags of the pages of a program. -/
def imagePerm : Perm := { r := true, w := true, x := true, u := true }

/-- The flags of a stack. -/
def stackPerm : Perm := { r := true, w := true, x := false, u := true }

/-- A thread that gets a page for its stack has it mapped with its trap frame and nothing else. -/
theorem allocthread_adds (kept : Kept l k) (rooted : (k.pool s).pagetable = some root)
    (given : (kalloc k.memory).1 ≠ none) (done : allocthread l k s root true = .ok (some t, after)) : ∃ stacked,
      Adds l k.memory stacked k.holding s (fun _ => stackPerm) (· = ustackVpn (k.pool s) t) ∧
        Touched stacked after.memory k.holding.roots s (· = trapframeVpn t) ∧
          (space stacked (k.holding.roots s) (trapframeVpn t)).valid = false := by
  have held : k.holding.roots s = some root := rooted
  unfold allocthread at done
  split at done
  · simp at done
  · rename_i u found
    simp only [if_true] at done
    obtain ⟨mid, stack, rest⟩ := bind_ok.mp done
    obtain ⟨⟨mapped, m⟩, mapping, result⟩ := bind_ok.mp rest
    cases mapped with
    | false => simp at result
    | true =>
        simp only [if_true, pure, Except.pure, Except.ok.injEq, Prod.mk.injEq, Option.some.injEq] at result
        obtain ⟨rfl, rfl⟩ := result
        obtain ⟨page, first, second, alloc, placing, rfl⟩ := mapUstack_ok stack
        cases page with
        | none => simp [alloc] at given
        | some page =>
            have adds := Adds.single (fun _ => stackPerm) kept.sound held rfl rfl rfl alloc placing
            obtain ⟨-, -, vacant, -⟩ := mapPage_adds adds.sound.forest held mapping
            exact ⟨second, adds, (mapPage_touched adds.sound.forest held mapping).mono fun v both => both.2, vacant⟩

/-- The pages of a new program and of the stack of its main thread. -/
def newPages (length : BitVec 32) (v : Nat) : Prop := 1 ≤ v ∧ v < 1 + imagePages length ∨ v = 2 + imagePages length

theorem newPages_low {v : Nat} (here : newPages length v) : v < systemVpn := by
  have limit := imagePages_le length
  have top : systemVpn = 2 ^ 26 - 18 := rfl
  rcases here with ⟨_, high⟩ | rfl
  · omega
  · omega

/-- The pages of a program have been added to a page table, then its stack and the trap frame of its main thread. -/
def Loads (l : Layout) (m after : Memory) (h : Holding) (s : Slot) (length : BitVec 32) : Prop :=
  ∃ loaded stacked, Adds l m loaded h s (fun _ => imagePerm) (fun v => 1 ≤ v ∧ v < 1 + imagePages length) ∧
    Adds l loaded stacked h s (fun _ => stackPerm) (· = 2 + imagePages length) ∧
      Touched stacked after h.roots s (· = trapframeVpn 0)

namespace Loads

variable {h : Holding} {last : Memory} {v : Nat}

/-- A page number that is none of the new ones shows what it showed before. -/
theorem other (loads : Loads l m last h s length) (inside : v < maxVpn) (frame : v ≠ trapframeVpn 0)
    (outside : ¬newPages length v) : space last (h.roots s) v = space m (h.roots s) v := by
  obtain ⟨first, second, image, stack, final⟩ := loads
  rw [final.space s inside fun both => frame both.2, stack.space inside fun here => outside (Or.inr here),
    image.space inside fun here => outside (Or.inl here)]

/-- The new program is mapped. -/
theorem maps (loads : Loads l m last h s length) : (∀ v, 1 ≤ v → v < 1 + imagePages length →
      ∃ page, space last (h.roots s) v = { valid := true, perm := imagePerm, page }) ∧
      ∃ page, space last (h.roots s) (2 + imagePages length) = { valid := true, perm := stackPerm, page } := by
  obtain ⟨first, second, image, stack, final⟩ := loads
  have kept (v : Nat) (here : newPages length v) : space last (h.roots s) v = space second (h.roots s) v := by
    have low := newPages_low here
    have high := trapframe_high 0
    exact final.space s (by simp only [systemVpn] at low; omega) fun both => by omega
  constructor
  · intro v low high
    obtain ⟨page, entry, _⟩ := image.fresh v ⟨low, high⟩
    rw [kept v (Or.inl ⟨low, high⟩), stack.space (image.inside v ⟨low, high⟩) fun same => by omega]
    exact ⟨page, entry⟩
  · obtain ⟨page, entry, _⟩ := stack.fresh _ rfl
    rw [kept _ (Or.inr rfl)]
    exact ⟨page, entry⟩

/-- The new pages were not mapped before. -/
theorem vacant (loads : Loads l m last h s length) (here : newPages length v) :
    userPage (space m (h.roots s) v) = none := by
  obtain ⟨first, second, image, stack, _⟩ := loads
  apply userPage_invalid
  by_cases range : 1 ≤ v ∧ v < 1 + imagePages length
  · exact image.vacant v range
  · have top := here.resolve_left range
    rw [← image.space (stack.inside v top) range]
    exact stack.vacant v top

end Loads

/-- What the main thread adds to the pages of a program. -/
theorem imaged_adds (kept : Kept l k) (rooted : (k.pool s).pagetable = some root)
    (loading : loadPages root (imagePages length) 1 k.memory = .ok m) (given : (kalloc m).1 ≠ none)
    (threading : allocthread l (imaged k s length m) s root true = .ok (some 0, after)) : ∃ stacked,
      Adds l m stacked k.holding s (fun _ => stackPerm) (· = 2 + imagePages length) ∧
        Touched stacked after.memory k.holding.roots s (· = trapframeVpn 0) ∧
          (space stacked (k.holding.roots s) (trapframeVpn 0)).valid = false := by
  have adds := allocthread_adds (kept.imaged rooted loading) (imaged_root rooted length m) given threading
  rw [imaged_holding, imaged_pool] at adds
  exact adds

/-- What `bin_loader` has added to the page table of a process whose main thread has its stack. -/
theorem binLoader_loads (kept : Kept l k) (rooted : (k.pool s).pagetable = some root)
    (done : binLoader l k s length = .ok (.done, after)) (argv : pushArgv after s fits = .ok ()) :
    Loads l k.memory after.memory k.holding s length ∧ (after.pool s).pagetable = some root ∧
      ∀ u, u ≠ 0 → (after.pool s).threads u = (k.pool s).threads u := by
  obtain ⟨m, loading, threading⟩ := binLoader_parts rooted done
  have held : k.holding.roots s = some root := rooted
  have image := loadPages_adds held rfl (imagePages length) kept.sound loading
  rcases allocthread_user (kept.imaged rooted loading) (imaged_root rooted length m) threading with ⟨impossible, _⟩ | ⟨t, main, started⟩
  · contradiction
  · obtain rfl := Option.some.inj main
    obtain ⟨stacked, stack, frame, _⟩ := imaged_adds kept rooted loading (started.given rooted argv) threading
    obtain ⟨maxPage, pool⟩ := started.pool
    rw [imaged_pool] at pool
    refine ⟨⟨m, stacked, image, stack, frame⟩, ?_, fun u other => ?_⟩
    · rw [pool, Function.update_self]
      exact rooted
    · rw [pool, Function.update_self]
      exact Function.update_of_ne other ..

/-- The new program has taken the place of the old one: the user sees its pages and its stack alone, no other thread is
runnable, and the pages of the old program were free once before it was loaded. -/
structure Replaced (k bare after : Kernel) (s : Slot) (t : Tid) (length : BitVec 32) : Prop where
  image : ∀ v, 1 ≤ v → v < 1 + imagePages length →
    ∃ page, space after.memory (after.pool s).pagetable v = { valid := true, perm := imagePerm, page }
  stack : ∃ page, space after.memory (after.pool s).pagetable (2 + imagePages length) =
    { valid := true, perm := stackPerm, page }
  only : ∀ v, v < maxVpn → userPage (space after.memory (after.pool s).pagetable v) ≠ none → newPages length v
  threads : ∀ u, u ≠ t → (after.pool s).threads u ≠ .runnable
  freed : ∀ v page, v < maxVpn → userPage (space k.memory (k.pool s).pagetable v) = some page →
    bare.memory.free.count page = 1

/-- A process has no page for the user but those that `exec` unmaps, and no other runnable thread. -/
structure Contained (k : Kernel) (s : Slot) (t : Tid) : Prop where
  pages : ∀ v, v < maxVpn → userPage (space k.memory (k.pool s).pagetable v) ≠ none → torn (k.pool s) t v
  threads : ∀ u, u ≠ t → (k.pool s).threads u ≠ .runnable

/-- The memory and the threads of a process before and after the new program has been loaded. -/
structure Reloaded (l : Layout) (k bare after : Kernel) (s : Slot) (length : BitVec 32) : Prop where
  torn : TornDown l k bare s 0
  loads : Loads l bare.memory after.memory k.holding s length
  rooted : (after.pool s).pagetable = (k.pool s).pagetable
  threads : ∀ u, u ≠ 0 → (after.pool s).threads u = (k.pool s).threads u

/-- Only the main thread gets to the end of `exec`. -/
theorem exec_reloads (kept : Kept l k) (led : Led k) (lives : alive ((k.pool s).threads t) = true)
    (rooted : (k.pool s).pagetable = some root) (done : exec l k s t (some length) fits = .ok (after, events)) :
    t = 0 ∧ ∃ bare, execFree l k s t root = .ok bare ∧ Reloaded l k bare after s length := by
  obtain ⟨bare, loaded, freed, loading, argv, rfl⟩ := exec_parts rooted done
  have down := execFree_torn kept lives rooted freed
  have own : bare.pool s = threaded (k.pool s) t .unused := by
    rw [down.pool]
    exact setThread_self k s t .unused
  have main : t = 0 := by
    by_contra other
    have before := (binLoader_loaded down.kept loading argv).unused
    rw [own, threaded_other _ _ (Ne.symm other)] at before
    have leader := (led s).1 t lives
    rw [before] at leader
    simp [alive] at leader
  subst main
  have rootedBare : (bare.pool s).pagetable = some root := by
    rw [own]
    exact rooted
  obtain ⟨loads, place, threads⟩ := binLoader_loads down.kept rootedBare loading argv
  rw [down.holding] at loads
  refine ⟨rfl, bare, freed, down, loads, ?_, fun u other => ?_⟩
  · rw [setThread_self]
    exact place.trans rooted.symm
  · rw [setThread_self, threaded_other _ _ other, threads u other, own, threaded_other _ _ other]

/-- The user sees no page of a process that is torn down but those that the old program had elsewhere. -/
theorem TornDown.left (down : TornDown l k bare s t) (kept : Kept l k) (lives : alive ((k.pool s).threads t) = true) {v : Nat}
    (inside : v < maxVpn) {page : Page} : userPage (space bare.memory (k.pool s).pagetable v) = some page ↔
      userPage (space k.memory (k.pool s).pagetable v) = some page ∧ ¬torn (k.pool s) t v := by
  by_cases here : torn (k.pool s) t v
  · have gone := down.gone v inside here
    change (space bare.memory (k.pool s).pagetable v).valid = false at gone
    rw [userPage_invalid gone]
    simp [here]
  · by_cases frame : v = trapframeVpn t
    · have system : userPage (space k.memory (k.pool s).pagetable (trapframeVpn t)) = none := kept.trapframe_system lives
      have gone := down.frame
      change (space bare.memory (k.pool s).pagetable (trapframeVpn t)).valid = false at gone
      rw [frame, userPage_invalid gone, system]
      simp
    · have same : space bare.memory (k.pool s).pagetable v = space k.memory (k.pool s).pagetable v :=
        down.touched.space s inside fun both => both.2.elim frame here
      rw [same]
      simp [here]

/-- A successful `exec` replaces the old program exactly when the process has no page for the user but those that `exec`
unmaps, and no other runnable thread. -/
theorem exec_replaces (kept : Kept l k) (led : Led k) (lives : alive ((k.pool s).threads t) = true)
    (done : exec l k s t (some length) fits = .ok (after, events)) : ∃ root bare, (k.pool s).pagetable = some root ∧
      execFree l k s t root = .ok bare ∧ (Replaced k bare after s t length ↔ Contained k s t) := by
  obtain ⟨root, rooted⟩ := Option.ne_none_iff_exists'.mp (kept.rooted s t lives)
  have used := kept.used s (by simp [rooted])
  have keptAfter := (exec_kept kept led used lives done).1
  have running : (after.pool s).threads t = .running := by
    obtain ⟨_, loaded, _, _, _, rfl⟩ := exec_parts rooted done
    rw [setThread_self, threaded_self]
  have frameAfter := keptAfter.trapframe_system (s := s) (t := t) (by rw [running]; rfl)
  obtain ⟨rfl, bare, freed, reloaded⟩ := exec_reloads kept led lives rooted done
  refine ⟨root, bare, rooted, freed, ?_⟩
  have frameAfter : userPage (space after.memory (k.pool s).pagetable (trapframeVpn 0)) = none := by
    rw [← reloaded.rooted]
    exact frameAfter
  have frameBefore : userPage (space k.memory (k.pool s).pagetable (trapframeVpn 0)) = none := kept.trapframe_system lives
  constructor
  · intro replaced
    refine ⟨fun v inside mapped => ?_, fun u other runs => ?_⟩
    · obtain ⟨page, mine⟩ := Option.ne_none_iff_exists'.mp mapped
      by_contra outside
      have left := (reloaded.torn.left kept lives inside).mpr ⟨mine, outside⟩
      have new : ¬newPages length v := by
        intro here
        have blank : userPage (space bare.memory (k.pool s).pagetable v) = none := reloaded.loads.vacant here
        rw [blank] at left
        simp at left
      apply new
      apply replaced.only v inside
      have frame : v ≠ trapframeVpn 0 := by
        rintro rfl
        exact mapped frameBefore
      have same : space after.memory (k.pool s).pagetable v = space bare.memory (k.pool s).pagetable v :=
        reloaded.loads.other inside frame new
      rw [reloaded.rooted, same, left]
      simp
    · apply replaced.threads u other
      rw [reloaded.threads u other]
      exact runs
  · intro contained
    obtain ⟨image, stack⟩ := reloaded.loads.maps
    constructor
    · rw [reloaded.rooted]
      exact image
    · rw [reloaded.rooted]
      exact stack
    · intro v inside mapped
      rw [reloaded.rooted] at mapped
      by_contra outside
      have frame : v ≠ trapframeVpn 0 := by
        rintro rfl
        exact mapped frameAfter
      have same : space after.memory (k.pool s).pagetable v = space bare.memory (k.pool s).pagetable v :=
        reloaded.loads.other inside frame outside
      rw [same] at mapped
      obtain ⟨page, mine⟩ := Option.ne_none_iff_exists'.mp mapped
      obtain ⟨old, left⟩ := (reloaded.torn.left kept lives inside).mp mine
      exact left (contained.pages v inside (by rw [old]; simp))
    · intro u other
      rw [reloaded.threads u other]
      exact contained.threads u other
    · intro v page inside mine
      have here := contained.pages v inside (by rw [mine]; simp)
      apply List.count_eq_one_of_mem reloaded.torn.kept.sound.owned.nodup
      exact (reloaded.torn.free page).mpr (Or.inr ⟨v, here, mine⟩)

/-- A new process maps the trampoline alone. -/
theorem allocproc_blank {mid : Kernel} {v : Nat} (kept : Kept l k) (created : allocproc l k = .ok (some s, mid))
    (rooted : (mid.pool s).pagetable = some root) (inside : v < maxVpn) (other : v ≠ trampolineVpn) :
    (space mid.memory (some root) v).valid = false := by
  obtain ⟨_, _, fields⟩ := allocproc_kept kept created
  obtain ⟨unused, _⟩ := fields s rfl
  have vacant : k.holding.roots s = none := by
    by_contra held
    rw [kept.used s held] at unused
    simp at unused
  unfold allocproc at created
  split at created
  · simp at created
  · rename_i r found
    obtain ⟨⟨page, m⟩, creating, rest⟩ := bind_ok.mp created
    simp only [pure, Except.pure, Except.ok.injEq, Prod.mk.injEq, Option.some.injEq] at rest
    obtain ⟨rfl, rfl⟩ := rest
    have own : page = some root := (congrArg Process.pagetable (setProcess_self k r _)).symm.trans rooted
    rw [own] at creating
    exact uvmcreate_blank kept.sound vacant creating inside other

/-- A new process has no page for the user. -/
theorem allocproc_userless {mid : Kernel} {v : Nat} (kept : Kept l k) (created : allocproc l k = .ok (some s, mid))
    (rooted : (mid.pool s).pagetable = some root) (inside : v < maxVpn) : userPage (space mid.memory (some root) v) = none := by
  by_cases top : v = trampolineVpn
  · rw [top, (allocproc_kept kept created).1.trampoline s root rooted]
    rfl
  · exact userPage_invalid (allocproc_blank kept created rooted inside top)

/-- The user of a new process sees the pages of its program and its stack alone. -/
theorem allocproc_loads {mid : Kernel} (kept : Kept l k) (created : allocproc l k = .ok (some s, mid))
    (rooted : (mid.pool s).pagetable = some root) (loading : binLoader l mid s length = .ok (.done, after))
    (argv : pushArgv after s fits = .ok ()) : (after.pool s).pagetable = some root ∧
      ∀ v, v < maxVpn → userPage (space after.memory (some root) v) ≠ none → newPages length v := by
  obtain ⟨keptMid, _⟩ := allocproc_kept kept created
  obtain ⟨loads, place, _⟩ := binLoader_loads keptMid rooted loading argv
  have loaded := binLoader_loaded keptMid loading argv
  refine ⟨place, fun v inside mapped => ?_⟩
  by_contra outside
  by_cases frame : v = trapframeVpn 0
  · have system : userPage (space after.memory (after.pool s).pagetable (trapframeVpn 0)) = none :=
      loaded.kept.trapframe_system (by rw [loaded.main]; rfl)
    rw [place, ← frame] at system
    exact mapped system
  · have same := loads.other inside frame outside
    rw [show mid.holding.roots s = some root from rooted] at same
    rw [same] at mapped
    exact mapped (allocproc_userless kept created rooted inside)

/-- The first program executes another one. -/
theorem exec_replaces_run : ∃ k after events bare,
    loadInitApp (smallLayout 12) (bootKernel (smallLayout 12)) 1 true = .ok (k, []) ∧
      exec (smallLayout 12) k 0 0 (some 5000) true = .ok (after, events) ∧ Replaced k bare after 0 0 5000 := by
  have test : ((allocproc (smallLayout 12) (bootKernel (smallLayout 12))).toOption.any fun pair : Option Slot × Kernel =>
      decide (pair.1 = some 0) && (pair.2.pool 0).pagetable.isSome &&
        (binLoader (smallLayout 12) pair.2 0 1).toOption.any fun loaded : Attempt × Kernel =>
          decide (loaded.1 = .done) && (pushArgv loaded.2 0 true).toOption.isSome &&
            (exec (smallLayout 12) (loaded.2.setThread 0 0 .runnable) 0 0 (some 5000) true).toOption.isSome &&
              decide ((loaded.2.pool 0).maxPage = 4 ∧ (loaded.2.pool 0).ustackBase = 3 ∧
                ∀ u, u ≠ 0 → (loaded.2.pool 0).threads u = .unused)) = true := by
    decide +kernel
  rw [Option.any_eq_true] at test
  obtain ⟨⟨slot, mid⟩, created, test⟩ := test
  simp only [Bool.and_eq_true, decide_eq_true_eq, Option.any_eq_true] at test
  obtain ⟨⟨rfl, paged⟩, ⟨result, loaded⟩, loading, ⟨⟨rfl, argv⟩, ran⟩, limit, base, idle⟩ := test
  obtain ⟨root, rooted⟩ := Option.isSome_iff_exists.mp paged
  obtain ⟨⟨⟩, argv⟩ := Option.isSome_iff_exists.mp argv
  obtain ⟨⟨after, events⟩, done⟩ := Option.isSome_iff_exists.mp ran
  rw [toOption_some] at created loading argv done
  have limit : (loaded.pool 0).maxPage = 4 := limit
  have base : (loaded.pool 0).ustackBase = 3 := base
  obtain ⟨keptBoot, ledBoot⟩ := bootKernel_kept (smallLayout 12)
  obtain ⟨place, pages⟩ := allocproc_loads keptBoot created rooted loading argv
  have started : loadInitApp (smallLayout 12) (bootKernel (smallLayout 12)) 1 true = .ok (loaded.setThread 0 0 .runnable, []) := by
    simp only [loadInitApp, created, loading, argv, bind, Except.bind, pure, Except.pure]
  obtain ⟨kept, led⟩ := loadInitApp_kept keptBoot ledBoot started
  have own : (loaded.setThread 0 0 .runnable).pool 0 = threaded (loaded.pool 0) 0 .runnable := setThread_self ..
  have lives : alive (((loaded.setThread 0 0 .runnable).pool 0).threads 0) = true := by
    rw [own, threaded_self]
    rfl
  obtain ⟨_, bare, _, _, replaced⟩ := exec_replaces kept led lives done
  refine ⟨_, after, events, bare, started, done, replaced.mpr ⟨fun v inside mapped => ?_, fun u other => ?_⟩⟩
  · rw [own] at mapped ⊢
    have here := pages v inside (by rw [← place]; exact mapped)
    have image : imagePages 1 = 1 := rfl
    rw [newPages, image] at here
    simp only [torn, ustackVpn, threaded, limit, base]
    omega
  · rw [own, threaded_other _ _ other, idle u other]
    simp

/-- A page that the first program has mapped far up is still there after `exec`. -/
theorem exec_leaves_page : ∃ k trace after events,
    Reaches (step (smallLayout 12)) (fun k _ action => fed k action = true) (· = bootKernel (smallLayout 12)) k trace ∧
      exec (smallLayout 12) k 0 0 (some 1) true = .ok (after, events) ∧ ∀ bare, ¬Replaced k bare after 0 0 1 := by
  obtain ⟨k, trace, reached, test⟩ := replay_witness (step (smallLayout 12)) (fun k _ action => fed k action = true)
    (· = bootKernel (smallLayout 12)) (loadRun ++ [mmapCall 0x100000]) (bootKernel (smallLayout 12)) rfl
    (fun k _ => (exec (smallLayout 12) k 0 0 (some 1) true).toOption.any fun result : Kernel × List Event =>
      (userPage (space result.1.memory (result.1.pool 0).pagetable 256)).isSome) (by decide +kernel)
  rw [Option.any_eq_true] at test
  obtain ⟨⟨after, events⟩, ran, mapped⟩ := test
  refine ⟨k, trace, after, events, reached, toOption_some.mp ran, fun bare replaced => ?_⟩
  have here := replaced.only 256 (by decide) (Option.isSome_iff_ne_none.mp mapped)
  have image : imagePages 1 = 1 := rfl
  rw [newPages, image] at here
  omega

end BtbuOs.Vm
