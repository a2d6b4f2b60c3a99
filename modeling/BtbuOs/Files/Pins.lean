import Mathlib.Algebra.Group.Pi.Basic
import BtbuOs.Files.Inodes

namespace BtbuOs.Files

open Machine RefCount
open Sync (Tid)
open Sched (nproc Slot ProcState)

variable {k mid after : Kernel} {s np : Slot} {t : Tid} {f : FileIx} {i dp : InodeIx} {events : List Event}

/-- Each reference to an inode has an owner, and a file without references has no type. -/
structure Owned (k : Kernel) : Prop where
  inodes : InodesCounted k
  idle : ∀ f, (k.filepool f).ref = 0 → (k.filepool f).type = .none
  ref : ∀ f, 0 ≤ (k.filepool f).ref

/-- The references that the kernel code owns change while the counts stay exact. -/
structure Shift (k after : Kernel) (change : InodeIx → Int) : Prop where
  owned : Owned k → Owned after
  pins : ∀ i, after.pins i = k.pins i + change i

/-- One reference to an inode. -/
def single (i : InodeIx) : InodeIx → Int := fun j => if j = i then 1 else 0

/-- The reference that a lookup returns, if it finds an inode. -/
def returned (ip : Option InodeIx) : InodeIx → Int := ip.elim 0 single

theorem Shift.refl (k : Kernel) : Shift k k 0 := ⟨id, fun _ => (Int.add_zero _).symm⟩

theorem Shift.trans {first second : InodeIx → Int} (one : Shift k mid first) (two : Shift mid after second) :
    Shift k after (first + second) := by
  refine ⟨fun owned => two.owned (one.owned owned), fun i => ?_⟩
  rw [two.pins, one.pins, Int.add_assoc]
  rfl

theorem Shift.congr {change other : InodeIx → Int} (shift : Shift k after change) (same : change = other) :
    Shift k after other := same ▸ shift

/-- A step that shifts nothing can follow. -/
theorem Shift.still {change : InodeIx → Int} (shift : Shift k mid change) (rest : Shift mid after 0) : Shift k after change :=
  (shift.trans rest).congr (add_zero change)

/-- A change outside the files and the inodes shifts nothing. -/
theorem Shift.same (filepool : after.filepool = k.filepool) (itable : after.itable = k.itable)
    (pins : after.pins = k.pins) : Shift k after 0 := by
  constructor
  · intro owned
    constructor
    · apply owned.inodes.keep _ itable pins
      funext f
      rw [inodes, inodes, filepool]
    · rw [filepool]
      exact owned.idle
    · rw [filepool]
      exact owned.ref
  · intro i
    rw [pins]
    exact (Int.add_zero _).symm

theorem shift_setFd (k : Kernel) (s : Slot) (fd : Fd) (f : Option FileIx) : Shift k (k.setFd s fd f) 0 := Shift.same rfl rfl rfl

/-- A file that keeps its inode shifts nothing. -/
theorem Shift.file {file : File} (inode : file.inode = inodes k f) (ref : 0 < file.ref) : Shift k (k.setFile f file) 0 := by
  refine ⟨fun owned => ?_, fun i => (Int.add_zero _).symm⟩
  constructor
  · intro i
    rw [inodes_setFile, inode, Function.update_eq_self]
    exact owned.inodes i
  · intro g zero
    by_cases own : g = f
    · subst own
      simp only [Kernel.setFile, Function.update_self] at zero
      omega
    · simp only [Kernel.setFile, Function.update_of_ne own] at zero ⊢
      exact owned.idle g zero
  · intro g
    by_cases own : g = f
    · subst own
      simp only [Kernel.setFile, Function.update_self]
      omega
    · simp only [Kernel.setFile, Function.update_of_ne own]
      exact owned.ref g

theorem Shift.aside {change : InodeIx → Int} (aside : Aside k after) (pins : ∀ i, after.pins i = k.pins i + change i) :
    Shift k after change := by
  refine ⟨fun owned => ?_, pins⟩
  constructor
  · exact aside.inodes owned.inodes
  · rw [aside.filepool]
    exact owned.idle
  · rw [aside.filepool]
    exact owned.ref

theorem pin_pins (k : Kernel) (i : InodeIx) (change : Int) (j : InodeIx) :
    (k.pin i change).pins j = k.pins j + change * single i j := by
  by_cases own : j = i
  · subst own
    simp [Kernel.pin, single]
  · simp [Kernel.pin, single, own]

theorem shift_iget {inum : Nat} (got : iget k inum = .ok (i, after)) : Shift k after (single i) := by
  apply Shift.aside (iget_aside got)
  intro j
  have pinned (inode : Inode) : ((k.setInode i inode).pin i 1).pins j = k.pins j + single i j := by
    rw [pin_pins, Int.one_mul]
    rfl
  unfold iget at got
  split at got
  · simp only [Except.ok.injEq, Prod.mk.injEq] at got
    obtain ⟨rfl, rfl⟩ := got
    exact pinned _
  · split at got
    · contradiction
    · simp only [Except.ok.injEq, Prod.mk.injEq] at got
      obtain ⟨rfl, rfl⟩ := got
      exact pinned _

theorem shift_iput (k : Kernel) (i : InodeIx) : Shift k (iput k i) (-single i) := by
  apply Shift.aside (iput_aside k i)
  intro j
  rw [iput, pin_pins, Int.neg_one_mul]
  rfl

/-- The lookup of a path keeps the reference to the root directory. -/
theorem shift_namei {found : Option Entry} {ip : Option InodeIx} (named : namei k found = .ok (ip, after)) :
    ∃ dp, Shift k after (single dp + returned ip) := by
  obtain ⟨⟨dp, mid⟩, root, rest⟩ := bind_ok.mp named
  refine ⟨dp, ?_⟩
  cases found with
  | none =>
      simp only [Except.ok.injEq, Prod.mk.injEq] at rest
      obtain ⟨rfl, rfl⟩ := rest
      exact (shift_iget root).congr (add_zero _).symm
  | some entry =>
      obtain ⟨⟨i, last⟩, got, done⟩ := bind_ok.mp rest
      simp only [Except.ok.injEq, Prod.mk.injEq] at done
      obtain ⟨rfl, rfl⟩ := done
      exact (shift_iget root).trans (shift_iget got)

/-- The creation of a file gives the reference to the root directory back. -/
theorem shift_create {found : Option Entry} {fresh : Option Nat} {ip : Option InodeIx}
    (created : create k found fresh = .ok (ip, after)) : Shift k after (returned ip) := by
  obtain ⟨⟨dp, mid⟩, root, rest⟩ := bind_ok.mp created
  cases found with
  | some entry =>
      obtain ⟨⟨i, last⟩, got, typed⟩ := bind_ok.mp rest
      obtain ⟨_, _, done⟩ := bind_ok.mp typed
      have closed := ((shift_iget root).trans (shift_iget got)).trans (shift_iput last dp)
      split at done
      · simp only [Except.ok.injEq, Prod.mk.injEq] at done
        obtain ⟨rfl, rfl⟩ := done
        exact closed.congr (by simp [returned])
      · simp only [Except.ok.injEq, Prod.mk.injEq] at done
        obtain ⟨rfl, rfl⟩ := done
        exact (closed.trans (shift_iput _ i)).congr (by simp [returned])
  | none =>
      cases fresh with
      | none => simp at rest
      | some inum =>
          obtain ⟨⟨i, last⟩, got, done⟩ := bind_ok.mp rest
          simp only [Except.ok.injEq, Prod.mk.injEq] at done
          obtain ⟨rfl, rfl⟩ := done
          exact (((shift_iget root).trans (shift_iget got)).trans (shift_iput last dp)).congr (by simp [returned])

theorem shift_filealloc (owned : Owned k) (alloc : filealloc k = some (f, after)) :
    inodes k f = none ∧ Shift k after 0 := by
  obtain ⟨zero, rfl⟩ := filealloc_taken alloc
  exact ⟨inodes_idle (owned.idle f zero), Shift.file rfl Int.one_pos⟩

/-- A new file without an inode gets a type that is no inode. -/
theorem Shift.typed {file : File} (idle : inodes k f = none) (plain : file.inode = none) (ref : 0 < file.ref) :
    Shift k (k.setFile f file) 0 := Shift.file (plain.trans idle.symm) ref

theorem inodes_setFile_self (k : Kernel) (f : FileIx) (file : File) : inodes (k.setFile f file) f = file.inode := by
  rw [inodes_setFile, Function.update_self]

theorem shift_fdalloc {fd : Option Fd} (alloc : fdalloc k s f = (fd, after)) : Shift k after 0 := by
  rcases fdalloc_filled alloc with ⟨_, rfl, _⟩ | ⟨d, _, _, rfl⟩
  · exact Shift.refl _
  · exact shift_setFd k s d (some f)

theorem shift_clearFd (k : Kernel) (s : Slot) (fd : Option Fd) : Shift k (clearFd k s fd) 0 := by
  cases fd with
  | none => exact Shift.same rfl rfl rfl
  | some fd => exact shift_setFd k s fd none

theorem pins_pipeclose (k : Kernel) (page : Nat) (writable : Bool) : (pipeclose k page writable).pins = k.pins := by
  unfold pipeclose
  split <;> rfl

/-- A closed file gives its reference back. -/
theorem shift_fileclose (closed : fileclose k f = .ok after) : Shift k after 0 := by
  obtain ⟨file, done⟩ := fileclose_closed closed
  have positive : 1 ≤ (k.filepool f).ref := by
    by_contra low
    simp [fileclose, Int.not_le.mp low] at closed
  have pins : after.pins = k.pins := by
    unfold fileclose at closed
    simp only at closed
    split at closed
    · contradiction
    · split at closed
      · cases closed
        rfl
      · split at closed
        · contradiction
        · cases closed
          rfl
        · cases closed
          exact pins_pipeclose k _ _
        · cases closed
          funext j
          show ((((k.pin _ 1).setInode _ _).pin _ (-1)).pins j) = k.pins j
          rw [pin_pins]
          show (k.pin _ 1).pins j + _ = _
          rw [pin_pins]
          omega
  refine ⟨fun owned => ?_, fun i => by rw [pins]; exact (Int.add_zero _).symm⟩
  constructor
  · exact done.inodes owned.inodes
  · intro g zero
    rw [done.filepool] at zero ⊢
    by_cases own : g = f
    · subst own
      rw [Function.update_self] at zero ⊢
      exact done.idle zero
    · rw [Function.update_of_ne own] at zero ⊢
      exact owned.idle g zero
  · intro g
    rw [done.filepool]
    by_cases own : g = f
    · subst own
      rw [Function.update_self, done.ref]
      omega
    · rw [Function.update_of_ne own]
      exact owned.ref g

theorem shift_initStdioFrom (owned : Owned k) (fds : List Fd) : Shift k (initStdioFrom s fds k).2 0 := by
  induction fds generalizing k with
  | nil => exact Shift.refl k
  | cons fd rest ih =>
      rw [initStdioFrom]
      split
      · exact Shift.refl k
      · split
        · exact Shift.refl k
        · rename_i f opened made
          unfold stdioInit at made
          cases alloc : filealloc k with
          | none => simp [alloc] at made
          | some taken =>
              obtain ⟨g, first⟩ := taken
              simp only [alloc, Option.some.injEq, Prod.mk.injEq] at made
              obtain ⟨rfl, rfl⟩ := made
              obtain ⟨idle, kept⟩ := shift_filealloc owned alloc
              obtain ⟨zero, rfl⟩ := filealloc_taken alloc
              have untyped : inodes (k.setFile g { k.filepool g with ref := 1 }) g = none := by
                rw [inodes_setFile_self]
                exact idle
              have stdio : Shift k ((k.setFile g { k.filepool g with ref := 1 }).setFile g
                  { (k.setFile g { k.filepool g with ref := 1 }).filepool g with
                    type := .stdio, ref := 1, readable := fd = 0 ∨ fd = 2, writable := fd = 1 ∨ fd = 2 }) 0 :=
                kept.still (Shift.typed untyped rfl Int.one_pos)
              have filled := stdio.still (shift_setFd _ s fd (some g))
              exact filled.still (ih (filled.owned owned))

theorem shift_shareFiles (owned : Owned k) (fds : List Fd) : Shift k (shareFiles s np fds k) 0 := by
  induction fds generalizing k with
  | nil => exact Shift.refl k
  | cons fd rest ih =>
      rw [shareFiles]
      split
      · exact ih owned
      · rename_i f named
        have positive := owned.ref f
        have counted : Shift k (k.setFile f { k.filepool f with ref := (k.filepool f).ref + 1 }) 0 := by
          apply Shift.file
          · rfl
          · show 0 < (k.filepool f).ref + 1
            omega
        have shared := counted.still (shift_setFd _ np fd (some f))
        exact shared.still (ih (shared.owned owned))

theorem shift_allocproc (alloc : allocproc k = some (np, after)) : Shift k after 0 := by
  unfold allocproc at alloc
  split at alloc
  · contradiction
  · simp only [Option.some.injEq, Prod.mk.injEq] at alloc
    obtain ⟨rfl, rfl⟩ := alloc
    exact Shift.same rfl rfl rfl

theorem shift_fork {memory : Memory} (owned : Owned k) (done : fork k s t memory = .ok (after, events)) : Shift k after 0 := by
  unfold fork at done
  cases alloc : allocproc k with
  | none => simp [alloc] at done
  | some pair =>
      obtain ⟨np, mid⟩ := pair
      have made := shift_allocproc alloc
      cases memory with
      | panics message => simp [alloc] at done
      | faults =>
          simp only [alloc, Except.ok.injEq, Prod.mk.injEq] at done
          obtain ⟨rfl, rfl⟩ := done
          exact made.still (Shift.same rfl rfl rfl)
      | enough =>
          simp only [alloc, Except.ok.injEq, Prod.mk.injEq] at done
          obtain ⟨rfl, rfl⟩ := done
          exact (made.still (shift_shareFiles (made.owned owned) _)).still (Shift.same rfl rfl rfl)

theorem shift_sysClose {fd : Int} (done : sysClose k s t fd = .ok (after, events)) : Shift k after 0 := by
  unfold sysClose at done
  split at done
  · cases done
    exact Shift.refl k
  · split at done
    · dsimp only at done
      split at done
      · cases done
        exact Shift.refl k
      · obtain ⟨mid, closing, rest⟩ := bind_ok.mp done
        cases rest
        exact (shift_fileclose closing).still (Shift.same rfl rfl rfl)
    · cases done
      exact Shift.same rfl rfl rfl

theorem shift_wait (k : Kernel) (s : Slot) (t : Tid) (pid : Int) (mapped : Bool) : Shift k (wait k s t pid mapped).1 0 := by
  unfold wait
  split
  · dsimp only
    split <;> exact Shift.same rfl rfl rfl
  · split <;> exact Shift.refl k

theorem shift_exit {code : Int} (done : exit k s t code = .ok after) : Shift k after 0 := by
  by_cases main : t = 0
  · subst main
    have left := exit_left done
    exact Shift.same left.filepool left.itable left.pins
  · unfold exit at done
    rw [if_neg main] at done
    cases done
    exact Shift.refl k

/-- Both ends of a new pipe are files without an inode. -/
theorem shift_pipealloc {f0 f1 : FileIx} {page : Option Nat} (idle0 : inodes k f0 = none) (idle1 : inodes k f1 = none)
    (ref0 : 0 < (k.filepool f0).ref) (ref1 : 0 < (k.filepool f1).ref) (allocated : pipealloc k f0 f1 page = some after) :
    Shift k after 0 := by
  unfold pipealloc at allocated
  split at allocated
  · contradiction
  · rename_i place
    simp only [Option.some.injEq] at allocated
    subst allocated
    have piped : Shift k (k.setPipe place (some (Ipc.pipealloc fun _ => 5))) 0 := Shift.same rfl rfl rfl
    have first : Shift (k.setPipe place (some (Ipc.pipealloc fun _ => 5)))
        ((k.setPipe place (some (Ipc.pipealloc fun _ => 5))).setFile f0
          { k.filepool f0 with type := .pipe place, readable := true, writable := false }) 0 :=
      Shift.typed idle0 rfl ref0
    refine (piped.still first).still (Shift.typed ?_ rfl ?_)
    · rw [inodes_setFile]
      by_cases own : f1 = f0
      · subst own
        rw [Function.update_self]
        rfl
      · rw [Function.update_of_ne own]
        exact idle1
    · by_cases own : f1 = f0
      · subst own
        simp only [Kernel.setFile, Function.update_self]
        exact ref0
      · simp only [Kernel.setFile, Function.update_of_ne own]
        exact ref1

theorem shift_sysPipe {page : Option Nat} {copied : Bool} (owned : Owned k)
    (done : sysPipe k s page copied = .ok (after, events)) : Shift k after 0 := by
  unfold sysPipe at done
  cases alloc0 : filealloc k with
  | none =>
      simp only [alloc0] at done
      cases done
      exact Shift.refl k
  | some taken0 =>
      obtain ⟨f0, first⟩ := taken0
      obtain ⟨idle0, made0⟩ := shift_filealloc owned alloc0
      obtain ⟨zero0, rfl⟩ := filealloc_taken alloc0
      cases alloc1 : filealloc (k.setFile f0 { k.filepool f0 with ref := 1 }) with
      | none =>
          simp only [alloc0, alloc1] at done
          obtain ⟨mid, closing, rest⟩ := bind_ok.mp done
          cases rest
          exact made0.still (shift_fileclose closing)
      | some taken1 =>
          obtain ⟨f1, second⟩ := taken1
          obtain ⟨idle1, made1⟩ := shift_filealloc (made0.owned owned) alloc1
          obtain ⟨apart, zero1, rfl⟩ := filealloc_second alloc1
          have made := made0.still made1
          simp only [alloc0, alloc1] at done
          split at done
          · obtain ⟨mid, closing0, rest⟩ := bind_ok.mp done
            obtain ⟨last, closing1, final⟩ := bind_ok.mp rest
            cases final
            exact (made.still (shift_fileclose closing0)).still (shift_fileclose closing1)
          · rename_i piped allocated
            have typed : Shift k piped 0 := by
              apply made.still (shift_pipealloc _ _ _ _ allocated)
              · rw [inodes_setFile, Function.update_of_ne apart.symm, inodes_setFile_self]
                exact idle0
              · rw [inodes_setFile_self]
                rwa [inodes_setFile, Function.update_of_ne apart] at idle1
              · simp [Kernel.setFile, apart.symm]
              · simp [Kernel.setFile]
            cases filled0 : fdalloc piped s f0 with
            | mk fd0 first =>
                cases filled1 : fdalloc first s f1 with
                | mk fd1 second =>
                    have filled := (typed.still (shift_fdalloc filled0)).still (shift_fdalloc filled1)
                    simp only [filled0, filled1] at done
                    split at done
                    · cases done
                      exact filled
                    · obtain ⟨mid, closing0, rest⟩ := bind_ok.mp done
                      obtain ⟨last, closing1, final⟩ := bind_ok.mp rest
                      cases final
                      have cleared := (filled.still (shift_clearFd second s fd0)).still (shift_clearFd _ s fd1)
                      exact (cleared.still (shift_fileclose closing0)).still (shift_fileclose closing1)

/-- A reference goes from the kernel code to a file that had no inode. -/
theorem shift_give {file : File} (idle : inodes k f = none) (given : file.inode = some i) (ref : 0 < file.ref) :
    Shift k ((k.setFile f file).pin i (-1)) (-single i) := by
  constructor
  · intro owned
    constructor
    · apply owned.inodes.give idle (i := i)
      · show inodes (k.setFile f file) = _
        rw [inodes_setFile, given]
      · rfl
      · rfl
    · intro g zero
      by_cases own : g = f
      · subst own
        simp only [Kernel.pin, Kernel.setFile, Function.update_self] at zero
        omega
      · simp only [Kernel.pin, Kernel.setFile, Function.update_of_ne own] at zero ⊢
        exact owned.idle g zero
    · intro g
      by_cases own : g = f
      · subst own
        simp only [Kernel.pin, Kernel.setFile, Function.update_self]
        omega
      · simp only [Kernel.pin, Kernel.setFile, Function.update_of_ne own]
        exact owned.ref g
  · intro j
    rw [pin_pins, Int.neg_one_mul]
    rfl

/-- The reference that `fileopen` got from the path goes to the new file or back. -/
theorem shift_fileopen {found : Option Entry} {fresh : Option Nat} {omode : Nat} (owned : Owned k)
    (done : fileopen k s found fresh omode = .ok (after, events)) :
    if omode &&& oCreate = 0 then ∃ dp, Shift k after (single dp) else Shift k after 0 := by
  obtain ⟨⟨ip, opened⟩, walked, rest⟩ := bind_ok.mp done
  have passed (owned : Owned opened) : Shift opened after (-returned ip) := by
    cases ip with
    | none =>
        cases rest
        exact (Shift.refl _).congr neg_zero.symm
    | some i =>
        cases alloc : filealloc opened with
        | none =>
            simp only [alloc] at rest
            cases rest
            exact shift_iput opened i
        | some pair =>
            obtain ⟨f, mid⟩ := pair
            obtain ⟨idle, made⟩ := shift_filealloc owned alloc
            obtain ⟨zero, rfl⟩ := filealloc_taken alloc
            cases filled : fdalloc (opened.setFile f { opened.filepool f with ref := 1 }) s f with
            | mk fd last =>
                have set := made.still (shift_fdalloc filled)
                simp only [alloc, filled] at rest
                cases fd with
                | none =>
                    obtain ⟨closed, closing, final⟩ := bind_ok.mp rest
                    cases final
                    exact ((set.still (shift_fileclose closing)).trans (shift_iput closed i)).congr (zero_add _)
                | some d =>
                    cases rest
                    have same : last.filepool = (opened.setFile f { opened.filepool f with ref := 1 }).filepool := by
                      rcases fdalloc_filled filled with ⟨missing, _, _⟩ | ⟨_, _, _, rfl⟩
                      · contradiction
                      · rfl
                    refine (set.trans (shift_give ?_ rfl ?_)).congr (zero_add _)
                    · rw [inodes, same]
                      exact inodes_setFile_self opened f _ |>.trans idle
                    · show 0 < (last.filepool f).ref
                      rw [same]
                      simp [Kernel.setFile]
  unfold openInode at walked
  split at walked
  · rename_i creating
    rw [if_neg creating]
    have created := shift_create walked
    exact (created.trans (passed (created.owned owned))).congr (add_neg_cancel _)
  · rename_i plain
    rw [if_pos (not_not.mp plain)]
    obtain ⟨⟨named, mid⟩, walked, rest⟩ := bind_ok.mp walked
    obtain ⟨dp, looked⟩ := shift_namei walked
    refine ⟨dp, ?_⟩
    have same : ip = named ∧ opened = mid := by
      cases found with
      | none =>
          cases rest
          exact ⟨rfl, rfl⟩
      | some entry =>
          obtain ⟨_, _, final⟩ := bind_ok.mp rest
          split at final
          · contradiction
          · cases final
            exact ⟨rfl, rfl⟩
    obtain ⟨rfl, rfl⟩ := same
    exact (looked.trans (passed (looked.owned owned))).congr (add_neg_cancel_right _ _)

theorem shift_exec {found : Option Entry} {loads : Bool} {argc : Nat} (done : exec k found loads argc = .ok (after, events)) :
    ∃ dp, Shift k after (single dp) := by
  obtain ⟨⟨ip, named⟩, walked, rest⟩ := bind_ok.mp done
  obtain ⟨dp, looked⟩ := shift_namei walked
  refine ⟨dp, ?_⟩
  cases ip with
  | none =>
      cases rest
      exact looked.congr (add_zero _)
  | some i =>
      simp only at rest
      split at rest
      · cases rest
        exact (looked.trans (shift_iput named i)).congr (add_neg_cancel_right _ _)
      · contradiction

/-- A call that stops in a fault keeps the reference to the program's inode, too. -/
theorem shift_sysSpawn {copied : Bool} {found : Option Entry} {memory : Memory} (owned : Owned k)
    (done : sysSpawn k s t copied found memory = .ok (after, events)) :
    if copied = true then ∃ dp ip, Shift k after (single dp + returned ip) else Shift k after 0 := by
  cases copied with
  | false =>
      cases done
      exact Shift.refl k
  | true =>
      obtain ⟨⟨ip, named⟩, walked, rest⟩ := bind_ok.mp done
      obtain ⟨dp, looked⟩ := shift_namei walked
      refine ⟨dp, ?_⟩
      cases ip with
      | none =>
          cases rest
          exact ⟨none, looked⟩
      | some i =>
          cases alloc : allocproc named with
          | none =>
              simp only [alloc] at rest
              cases rest
              exact ⟨none, (looked.trans (shift_iput named i)).congr (by simp [returned])⟩
          | some pair =>
              obtain ⟨np, mid⟩ := pair
              simp only [alloc] at rest
              have parented : Shift k (setParent mid np s) (single dp + returned (some i)) :=
                (looked.still (shift_allocproc alloc)).still (Shift.same rfl rfl rfl)
              have stdio := parented.still (shift_initStdioFrom (s := np) (parented.owned owned) [0, 1, 2])
              split at rest
              · cases rest
                exact ⟨some i, stdio.still (Shift.same rfl rfl rfl)⟩
              · have shared : Shift k (shareFiles s np ((List.finRange fdBufferSize).drop 3)
                    (initStdioFrom np [0, 1, 2] (setParent mid np s)).2) (single dp + returned (some i)) :=
                  stdio.still (shift_shareFiles (stdio.owned owned) _)
                cases memory with
                | panics message => contradiction
                | faults =>
                    cases rest
                    exact ⟨some i, shared.still (Shift.same rfl rfl rfl)⟩
                | enough =>
                    cases rest
                    exact ⟨none, (shared.trans (shift_iput _ i)).congr (by simp [returned])⟩

/-- A new entry of the directory leaves no reference behind. -/
theorem shift_dirlink {taken : Option Entry} {writes linked : Bool} (done : dirlink k taken writes = .ok (linked, after)) :
    Shift k after 0 := by
  cases taken with
  | some entry =>
      obtain ⟨⟨i, mid⟩, got, rest⟩ := bind_ok.mp done
      cases rest
      exact ((shift_iget got).trans (shift_iput mid i)).congr (add_neg_cancel _)
  | none =>
      simp only [dirlink] at done
      split at done
      · cases done
        exact Shift.refl k
      · contradiction

theorem shift_dirunlink {found : Option Entry} {writes unlinked : Bool}
    (done : dirunlink k found writes = .ok (unlinked, after)) : Shift k after 0 := by
  cases found with
  | none =>
      cases done
      exact Shift.refl k
  | some entry =>
      obtain ⟨⟨i, mid⟩, got, rest⟩ := bind_ok.mp done
      simp only at rest
      split at rest
      · cases rest
        exact ((shift_iget got).trans (shift_iput mid i)).congr (add_neg_cancel _)
      · contradiction

/-- Both orders of giving the file and the directory back leave the first reference to the root. -/
theorem Shift.putsBoth {root : InodeIx} (held : Shift k mid (single root + returned (some i) + single dp)) :
    Shift k (iput (iput mid dp) i) (single root) ∧ Shift k (iput (iput mid i) dp) (single root) := by
  constructor
  · apply ((held.trans (shift_iput mid dp)).trans (shift_iput _ i)).congr
    simp [returned]
  · apply ((held.trans (shift_iput mid i)).trans (shift_iput _ dp)).congr
    funext j
    simp only [Pi.add_apply, Pi.neg_apply, returned, Option.elim_some]
    omega

theorem shift_sysLinkat {copied same writes : Bool} {found taken : Option Entry}
    (done : sysLinkat k copied same found taken writes = .ok (after, events)) :
    if copied = true ∧ same = false then ∃ dp, Shift k after (single dp) else Shift k after 0 := by
  unfold sysLinkat at done
  split at done
  · rename_i refused
    cases done
    rw [if_neg (by cases copied <;> cases same <;> simp at refused ⊢)]
    exact Shift.refl k
  · rename_i allowed
    rw [if_pos (by cases copied <;> cases same <;> simp at allowed ⊢)]
    obtain ⟨⟨ip, named⟩, walked, rest⟩ := bind_ok.mp done
    obtain ⟨root, looked⟩ := shift_namei walked
    refine ⟨root, ?_⟩
    cases ip with
    | none =>
        cases rest
        exact looked.congr (add_zero _)
    | some i =>
        cases found with
        | none => simp [namei, bind_ok] at walked
        | some entry =>
            obtain ⟨_, _, typed⟩ := bind_ok.mp rest
            split at typed
            · cases typed
              exact (looked.trans (shift_iput named i)).congr (add_neg_cancel_right _ _)
            · obtain ⟨⟨dp, mid⟩, got, linking⟩ := bind_ok.mp typed
              obtain ⟨⟨linked, last⟩, link, final⟩ := bind_ok.mp linking
              have held := (looked.trans (shift_iget got)).still (shift_dirlink link)
              simp only at final
              split at final
              · cases final
                exact held.putsBoth.1
              · cases final
                exact held.putsBoth.2

theorem shift_sysUnlinkat {copied writes : Bool} {found : Option Entry}
    (done : sysUnlinkat k copied found writes = .ok (after, events)) :
    if copied = true then ∃ dp, Shift k after (single dp) else Shift k after 0 := by
  cases copied with
  | false =>
      cases done
      exact Shift.refl k
  | true =>
      obtain ⟨⟨ip, named⟩, walked, rest⟩ := bind_ok.mp done
      obtain ⟨root, looked⟩ := shift_namei walked
      refine ⟨root, ?_⟩
      cases ip with
      | none =>
          cases rest
          exact looked.congr (add_zero _)
      | some i =>
          cases found with
          | none => simp [namei, bind_ok] at walked
          | some entry =>
              obtain ⟨_, _, typed⟩ := bind_ok.mp rest
              split at typed
              · cases typed
                exact (looked.trans (shift_iput named i)).congr (add_neg_cancel_right _ _)
              · obtain ⟨⟨dp, mid⟩, got, unlinking⟩ := bind_ok.mp typed
                obtain ⟨⟨unlinked, last⟩, unlink, final⟩ := bind_ok.mp unlinking
                have held := (looked.trans (shift_iget got)).still (shift_dirunlink unlink)
                simp only at final
                split at final
                · cases final
                  exact held.putsBoth.1
                · cases final
                  exact held.putsBoth.2

theorem sysFstat_same {fd : Int} {copied : Bool} (done : sysFstat k s fd copied = .ok (after, events)) : after = k := by
  unfold sysFstat at done
  split at done
  · split at done
    · cases done
      rfl
    · split at done <;> cases done <;> rfl
  · cases done
    rfl

/-- The kernel code owns some reference more and none less. -/
def Leak (change : InodeIx → Int) : Prop := (∀ i, 0 ≤ change i) ∧ ∃ i, 0 < change i

theorem leak_single (dp : InodeIx) (ip : Option InodeIx) : Leak (single dp + returned ip) := by
  have single_nonneg (i j : InodeIx) : 0 ≤ single i j := by
    unfold single
    split <;> decide
  have nonneg (j : InodeIx) : 0 ≤ returned ip j := by
    cases ip with
    | none => exact Int.le_refl 0
    | some i => exact single_nonneg i j
  constructor
  · intro j
    exact Int.add_nonneg (single_nonneg dp j) (nonneg j)
  · refine ⟨dp, Int.add_pos_of_pos_of_nonneg ?_ (nonneg dp)⟩
    simp [single]

theorem leak_root {dp : InodeIx} : Leak (single dp) := by
  have leak := leak_single dp none
  rwa [returned, Option.elim_none, add_zero] at leak

/-- A call that returns leaks a reference exactly when it looks up a path or lists the directory. -/
theorem shift_perform {call : InodeCall} (owned : Owned k) (done : perform k s t call = .ok (after, events)) :
    ∃ change, Shift k after change ∧ (Roots call → Leak change) ∧ (¬Roots call → change = 0) := by
  have quiet {call : InodeCall} (calm : ¬Roots call) (shift : Shift k after 0) :
      ∃ change, Shift k after change ∧ (Roots call → Leak change) ∧ (¬Roots call → change = 0) :=
    ⟨0, shift, fun roots => absurd roots calm, fun _ => rfl⟩
  have rooted {call : InodeCall} (roots : Roots call) {dp : InodeIx} (shift : Shift k after (single dp)) :
      ∃ change, Shift k after change ∧ (Roots call → Leak change) ∧ (¬Roots call → change = 0) :=
    ⟨_, shift, fun _ => leak_root, fun calm => absurd roots calm⟩
  cases call with
  | base call =>
      cases call with
      | fork memory => exact quiet id (shift_fork owned done)
      | spawn copied found memory =>
          have shift := shift_sysSpawn owned done
          split at shift
          · rename_i roots
            obtain ⟨dp, ip, shift⟩ := shift
            exact ⟨_, shift, fun _ => leak_single dp ip, fun calm => absurd roots calm⟩
          · rename_i calm
            exact quiet calm shift
      | exec found loads argc =>
          obtain ⟨dp, shift⟩ := shift_exec done
          exact rooted trivial shift
      | fileopen found fresh omode =>
          have shift := shift_fileopen owned done
          split at shift
          · rename_i roots
            obtain ⟨dp, shift⟩ := shift
            exact rooted roots shift
          · rename_i calm
            exact quiet calm shift
      | pipe page copied => exact quiet id (shift_sysPipe owned done)
      | close fd => exact quiet id (shift_sysClose done)
      | wait pid mapped =>
          simp only [perform, operate, Except.ok.injEq] at done
          have shift := shift_wait k s t pid mapped
          rw [done] at shift
          exact quiet id shift
      | exit code =>
          obtain ⟨left, exited, rest⟩ := bind_ok.mp done
          cases rest
          have freed : Shift k { k with fault := none } 0 := Shift.same rfl rfl rfl
          exact quiet id (freed.still (shift_exit exited))
  | linkat copied same found taken writes =>
      have shift := shift_sysLinkat done
      split at shift
      · rename_i roots
        obtain ⟨dp, shift⟩ := shift
        exact rooted roots shift
      · rename_i calm
        exact quiet calm shift
  | unlinkat copied found writes =>
      have shift := shift_sysUnlinkat done
      split at shift
      · rename_i roots
        obtain ⟨dp, shift⟩ := shift
        exact rooted roots shift
      · rename_i calm
        exact quiet calm shift
  | fstat fd copied =>
      obtain rfl := sysFstat_same done
      exact quiet id (Shift.refl _)
  | showAllFiles entries =>
      obtain ⟨⟨dp, mid⟩, got, rest⟩ := bind_ok.mp done
      cases rest
      exact rooted trivial (shift_iget got)

/-- The counts are exact and the kernel code owns no reference. -/
structure Begun (k : Kernel) : Prop extends Owned k where
  free : ∀ i, k.pins i = 0

theorem Owned.counted (owned : Owned k) (i : InodeIx) : (k.itable i).ref = openFiles k i + k.pins i := by
  have same : refs (Files.inodes k) i = openFiles k i := by
    apply congrArg Finset.card
    apply Finset.filter_congr
    intro f _
    rw [inodes_eq_some]
    constructor
    · intro type
      have nonzero : (k.filepool f).ref ≠ 0 := by
        intro zero
        rw [owned.idle f zero] at type
        exact FileType.noConfusion type
      have positive := owned.ref f
      exact ⟨type, by omega⟩
    · exact And.left
  rw [owned.inodes i, same]

/-- The counts match the open files when the kernel code owns nothing. -/
theorem Owned.references (owned : Owned k) : References k ↔ ∀ i, k.pins i = 0 := by
  constructor
  · intro exact i
    have counted := owned.counted i
    have ref := exact i
    omega
  · intro free i
    rw [owned.counted, free, Int.add_zero]

theorem inodeStep_cases {action : InodeAction} {trace : List InodeAction} (stepped : inodeStep k action = some (after, trace)) :
    trace = [action] ∧ k.halted = false ∧ after = (settle k (perform k action.s action.t action.call)).1 := by
  unfold inodeStep at stepped
  split at stepped
  · contradiction
  · rename_i going
    split at stepped
    · contradiction
    · split at stepped
      · contradiction
      · simp only [Option.some.injEq, Prod.mk.injEq] at stepped
        exact ⟨stepped.2.symm, Bool.eq_false_iff.mpr going, stepped.1.symm⟩

/-- The kernel code owns references exactly after a lookup of a path or a listing. -/
structure Pinned (k : Kernel) (trace : List InodeAction) : Prop where
  owned : Owned k
  nonneg : ∀ i, 0 ≤ k.pins i
  exact : k.halted = false → ((∀ i, k.pins i = 0) ↔ ∀ action ∈ trace, ¬Roots action.call)

theorem pinned_step {action : InodeAction} {trace events : List InodeAction} (pinned : Pinned k trace)
    (stepped : inodeStep k action = some (after, events)) : Pinned after (trace ++ events) := by
  obtain ⟨rfl, going, rfl⟩ := inodeStep_cases stepped
  cases result : perform k action.s action.t action.call with
  | error message =>
      have halt : Shift k { k with halted := true } 0 := Shift.same rfl rfl rfl
      refine ⟨halt.owned pinned.owned, pinned.nonneg, fun still => ?_⟩
      contradiction
  | ok pair =>
      obtain ⟨after, events⟩ := pair
      obtain ⟨change, shift, leaks, calm⟩ := shift_perform pinned.owned result
      have before := pinned.exact going
      have nonneg : ∀ i, 0 ≤ change i := by
        by_cases roots : Roots action.call
        · exact (leaks roots).1
        · rw [calm roots]
          exact fun _ => Int.le_refl 0
      refine ⟨shift.owned pinned.owned, fun i => ?_, fun _ => ?_⟩
      · show 0 ≤ after.pins i
        rw [shift.pins]
        exact Int.add_nonneg (pinned.nonneg i) (nonneg i)
      · show (∀ i, after.pins i = 0) ↔ _
        simp only [shift.pins, List.forall_mem_append, List.forall_mem_singleton]
        constructor
        · intro zero
          have both (i : InodeIx) : k.pins i = 0 ∧ change i = 0 := by
            have sum := zero i
            have left := pinned.nonneg i
            have right := nonneg i
            omega
          refine ⟨before.mp fun i => (both i).1, fun roots => ?_⟩
          obtain ⟨i, positive⟩ := (leaks roots).2
          rw [(both i).2] at positive
          exact Int.lt_irrefl 0 positive
        · rintro ⟨earlier, last⟩ i
          rw [before.mpr earlier, calm last]
          rfl

theorem reached_pinned {trace : List InodeAction} (run : Reaches inodeStep (fun _ _ _ => True) Begun k trace) :
    Pinned k trace := by
  apply run.invariant Pinned
  · intro state begun
    refine ⟨begun.toOwned, fun i => (begun.free i).ge, fun _ => ?_⟩
    simp [begun.free]
  · intro state trace action after events pinned _ stepped
    exact pinned_step pinned stepped

/-- Every reference to an inode belongs to an open file exactly when no call so far looked up a path or listed the directory. -/
theorem inode_references {trace : List InodeAction} (run : Reaches inodeStep (fun _ _ _ => True) Begun k trace)
    (going : k.halted = false) : (References k ↔ ∀ action ∈ trace, ¬Roots action.call) ∧
      (References k → ∀ i, (k.itable i).ref ≠ 0 → ∃ f, (k.filepool f).type = .inode i ∧ 0 < (k.filepool f).ref) := by
  have pinned := reached_pinned run
  constructor
  · rw [pinned.owned.references]
    exact pinned.exact going
  · intro references i used
    rw [references i] at used
    have positive : 0 < openFiles k i := by omega
    obtain ⟨f, member⟩ := Finset.card_pos.mp positive
    exact ⟨f, (Finset.mem_filter_univ f).mp member⟩

/-- The first process has its standard descriptors, and its program is not loaded yet. -/
def freshKernel : Kernel :=
  match allocproc blankKernel with
  | none => blankKernel
  | some (s, k) => (initStdio k s).2

theorem freshKernel_begun : Begun freshKernel := by
  have blank : Owned blankKernel := by
    refine ⟨blankKernel_balanced.inodes, fun f _ => rfl, fun f => Int.le_refl 0⟩
  have shift : Shift blankKernel freshKernel 0 := by
    unfold freshKernel
    split
    · exact Shift.refl _
    · rename_i s mid alloc
      have made := shift_allocproc alloc
      exact made.still (shift_initStdioFrom (made.owned blank) _)
  refine ⟨shift.owned blank, fun i => ?_⟩
  rw [shift.pins]
  rfl

/-- A file is created, opened again, looked at and closed. -/
theorem inode_references_run : ∃ k trace, Reaches inodeStep (fun _ _ _ => True) Begun k trace ∧ trace.length = 5 ∧ References k := by
  obtain ⟨k, trace, run, passed⟩ := replay_witness inodeStep (fun _ _ _ => True) Begun
    [⟨0, 0, .base (.fileopen none (some 5) (oCreate ||| oRdwr))⟩, ⟨0, 0, .base (.fileopen (some ⟨5, tFile⟩) none oCreate)⟩,
      ⟨0, 0, .fstat 3 true⟩, ⟨0, 0, .base (.close 3)⟩, ⟨0, 0, .unlinkat false none true⟩]
    freshKernel freshKernel_begun
    (fun k trace => k.halted = false ∧ trace.length = 5 ∧ trace.all fun action => match action.call with
      | .base (.fileopen _ _ omode) => omode &&& oCreate ≠ 0
      | .base (.close _) => true
      | .fstat _ _ => true
      | .unlinkat copied _ _ => !copied
      | _ => false) (by decide +kernel)
  obtain ⟨going, length, calm⟩ := of_decide_eq_true passed
  refine ⟨k, trace, run, length, (inode_references run going).1.mpr fun action member => ?_⟩
  have tested := List.all_eq_true.mp calm action member
  revert tested
  cases action.call with
  | base call => cases call <;> simp [Roots]
  | unlinkat copied found writes => cases copied <;> simp [Roots]
  | _ => simp [Roots]

theorem Balanced.owned (balanced : Balanced k) : Owned k := by
  refine ⟨balanced.inodes, balanced.idle, fun f => ?_⟩
  rw [balanced.ref f]
  exact Int.natCast_nonneg _

/-- An open without `O_CREATE` leaves a reference to the root directory behind, and so does the load of the first program. -/
theorem root_reference_left :
    (∃ k, Reaches inodeStep (fun _ _ _ => True) Begun k [⟨0, 0, .base (.fileopen (some ⟨5, tFile⟩) none oRdwr)⟩] ∧
      k.halted = false ∧ ¬References k) ∧ ¬References bootKernel := by
  constructor
  · obtain ⟨k, trace, run, passed⟩ := replay_witness inodeStep (fun _ _ _ => True) Begun
      [⟨0, 0, .base (.fileopen (some ⟨5, tFile⟩) none oRdwr)⟩] freshKernel freshKernel_begun
      (fun k trace => trace = [⟨0, 0, .base (.fileopen (some ⟨5, tFile⟩) none oRdwr)⟩] ∧ k.halted = false ∧ k.pins 0 = 1)
      (by decide +kernel)
    obtain ⟨rfl, going, pins⟩ := of_decide_eq_true passed
    refine ⟨k, run, going, fun references => ?_⟩
    have free := (reached_pinned run).owned.references.mp references 0
    rw [pins] at free
    contradiction
  · intro references
    have free := (booted_balanced bootKernel_booted).owned.references.mp references 0
    have pins : bootKernel.pins 0 = 1 := by decide +kernel
    rw [pins] at free
    contradiction

end BtbuOs.Files
