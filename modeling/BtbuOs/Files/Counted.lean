import BtbuOs.Files.Balance

namespace BtbuOs.Files

open Machine RefCount
open Sync (Tid)
open Sched (nproc Slot ProcState)

/-- The number of pairs of a process in use and a descriptor that name an open file. -/
def holders (k : Kernel) (f : FileIx) : Nat :=
  (Finset.univ.filter fun cell : Slot × Fd =>
    (k.pool cell.1).state = .used ∧ (k.pool cell.1).files cell.2 = some f).card

/-- Some process in use has an end of a pipe open. -/
def EndHeld (k : Kernel) (page : Nat) (writable : Bool) : Prop :=
  ∃ s fd f, (k.pool s).state = .used ∧ (k.pool s).files fd = some f ∧ (k.filepool f).type = .pipe page ∧
    (k.filepool f).writable = writable

/-- The counts of the open files are exact, and whatever nobody holds has been released. -/
structure Counted (k : Kernel) : Prop where
  ref : ∀ f, (k.filepool f).ref = holders k f
  released : ∀ f, holders k f = 0 → (k.filepool f).type = .none
  writeopen : ∀ page pi, k.pipes page = some pi → (pi.writeopen = true ↔ EndHeld k page true)
  readopen : ∀ page pi, k.pipes page = some pi → (pi.readopen = true ↔ EndHeld k page false)
  inode : ∀ i, (k.itable i).ref =
    (Finset.univ.filter fun f : FileIx => (k.filepool f).type = .inode i).card + k.pins i

theorem table_eq_some {k : Kernel} {s : Slot} {fd : Fd} {f : FileIx} :
    table k (s, fd) = some f ↔ (k.pool s).state = .used ∧ (k.pool s).files fd = some f := by
  by_cases used : (k.pool s).state = .used <;> simp [table, used]

theorem holders_eq (k : Kernel) (f : FileIx) : holders k f = refs (table k) f := by
  unfold holders refs
  simp only [← table_eq_some, Prod.mk.eta]

theorem ends_eq_some {k : Kernel} {f : FileIx} {page : Nat} {writable : Bool} :
    ends k f = some (page, writable) ↔ (k.filepool f).type = .pipe page ∧ (k.filepool f).writable = writable := by
  unfold ends File.pipeEnd
  cases type : (k.filepool f).type <;> simp

theorem inodes_eq_some {k : Kernel} {f : FileIx} {i : InodeIx} :
    inodes k f = some i ↔ (k.filepool f).type = .inode i := by
  unfold inodes File.inode
  cases type : (k.filepool f).type <;> simp

/-- An open file that is not released has a holder. -/
theorem Balanced.endHeld {k : Kernel} (balanced : Balanced k) (page : Nat) (writable : Bool) :
    endOpen k page writable = true ↔ EndHeld k page writable := by
  have counted := balanced.ends page writable
  constructor
  · intro opened
    rw [opened] at counted
    obtain ⟨f, held⟩ := refs_pos.mp (by rw [← counted]; decide)
    obtain ⟨type, mode⟩ := ends_eq_some.mp held
    have nonzero : (k.filepool f).ref ≠ 0 := by
      intro zero
      simp [balanced.idle f zero] at type
    have positive : 0 < refs (table k) f := by
      have ref := balanced.ref f
      omega
    obtain ⟨⟨s, fd⟩, named⟩ := refs_pos.mp positive
    obtain ⟨used, file⟩ := table_eq_some.mp named
    exact ⟨s, fd, f, used, file, type, mode⟩
  · rintro ⟨s, fd, f, used, file, type, mode⟩
    have positive := refs_pos.mpr ⟨f, ends_eq_some.mpr ⟨type, mode⟩⟩
    cases opened : endOpen k page writable with
    | true => rfl
    | false =>
        rw [opened, Bool.toNat_false] at counted
        omega

/-- The invariant gives the exact counts. -/
theorem Balanced.counted {k : Kernel} (balanced : Balanced k) : Counted k := by
  constructor
  · intro f
    rw [holders_eq]
    exact balanced.ref f
  · intro f zero
    apply balanced.idle f
    rw [balanced.ref f, ← holders_eq, zero]
    rfl
  · intro page pi live
    rw [← balanced.endHeld, endOpen, live]
    rfl
  · intro page pi live
    rw [← balanced.endHeld, endOpen, live]
    rfl
  · intro i
    rw [balanced.inodes i, refs]
    simp only [inodes_eq_some]

/-- A free entry of the pool becomes taken. -/
theorem filealloc_taken {k after : Kernel} {f : FileIx} (alloc : filealloc k = some (f, after)) :
    (k.filepool f).ref = 0 ∧ after = k.setFile f { k.filepool f with ref := 1 } := by
  unfold filealloc at alloc
  split at alloc
  · simp at alloc
  · rename_i g found
    simp only [Option.some.injEq, Prod.mk.injEq] at alloc
    obtain ⟨rfl, rfl⟩ := alloc
    exact ⟨by simpa using List.find?_some found, rfl⟩

/-- The descriptor that `fdalloc` fills was free. -/
theorem fdalloc_filled {k after : Kernel} {s : Slot} {f : FileIx} {fd : Option Fd} (alloc : fdalloc k s f = (fd, after)) :
    (fd = none ∧ after = k ∧ ∀ d, (k.pool s).files d ≠ none) ∨
      ∃ d, fd = some d ∧ (k.pool s).files d = none ∧ after = k.setFd s d (some f) := by
  unfold fdalloc at alloc
  split at alloc
  · rename_i absent
    simp only [Prod.mk.injEq] at alloc
    obtain ⟨rfl, rfl⟩ := alloc
    refine Or.inl ⟨rfl, rfl, fun d => ?_⟩
    have taken := List.find?_eq_none.mp absent d (List.mem_finRange d)
    simpa using taken
  · rename_i d found
    simp only [Prod.mk.injEq] at alloc
    obtain ⟨rfl, rfl⟩ := alloc
    exact Or.inr ⟨d, rfl, by simpa using List.find?_some found, rfl⟩

/-- A new process starts in use without descriptors. -/
theorem allocproc_fresh {k after : Kernel} {np : Slot} (alloc : allocproc k = some (np, after)) :
    (k.pool np).state = .unused ∧ (after.pool np).state = .used ∧ (∀ fd, (after.pool np).files fd = none) ∧
      (∀ s, s ≠ np → after.pool s = k.pool s) ∧ (Balanced k → Balanced after) := by
  unfold allocproc at alloc
  split at alloc
  · contradiction
  · rename_i s found
    simp only [Option.some.injEq, Prod.mk.injEq] at alloc
    obtain ⟨rfl, rfl⟩ := alloc
    have free : (k.pool s).state = .unused := by simpa using List.find?_some found
    refine ⟨free, by simp [Kernel.setProcess], by simp [Kernel.setProcess], fun r other => ?_, fun balanced => ?_⟩
    · simp [Kernel.setProcess, other]
    · apply balanced.same
      · apply table_setProcess
        intro fd
        simp [table, free]
      · rfl
      · rfl
      · exact balanced.inodes

/-- A process gets the standard descriptors, as far as the pool has entries for them. -/
theorem initStdioFrom_balanced {s : Slot} (fds : List Fd) {k : Kernel} (balanced : Balanced k)
    (used : (k.pool s).state = .used) :
    Balanced (initStdioFrom s fds k).2 ∧ ((initStdioFrom s fds k).2.pool s).state = .used ∧
      (∀ r, r ≠ s → (initStdioFrom s fds k).2.pool r = k.pool r) ∧
      ∀ fd, fd ∉ fds → ((initStdioFrom s fds k).2.pool s).files fd = (k.pool s).files fd := by
  induction fds generalizing k with
  | nil =>
      rw [initStdioFrom]
      exact ⟨balanced, used, fun _ _ => rfl, fun _ _ => rfl⟩
  | cons fd rest ih =>
      rw [initStdioFrom]
      by_cases free : (k.pool s).files fd = none
      · rw [if_neg (by simp [free])]
        cases made : stdioInit k fd with
        | none => exact ⟨balanced, used, fun _ _ => rfl, fun _ _ => rfl⟩
        | some pair =>
            obtain ⟨f, mid⟩ := pair
            unfold stdioInit at made
            cases alloc : filealloc k with
            | none => simp [alloc] at made
            | some taken =>
                obtain ⟨g, opened⟩ := taken
                simp only [alloc, Option.some.injEq, Prod.mk.injEq] at made
                obtain ⟨rfl, rfl⟩ := made
                obtain ⟨zero, rfl⟩ := filealloc_taken alloc
                simp only
                have type := balanced.idle g zero
                have next : Balanced ((((k.setFile g { k.filepool g with ref := 1 }).setFile g
                    { (k.setFile g { k.filepool g with ref := 1 }).filepool g with
                      type := .stdio, ref := 1, readable := fd = 0 ∨ fd = 2, writable := fd = 1 ∨ fd = 2 })).setFd
                        s fd (some g)) := by
                  constructor
                  · apply balanced.toHeld.attach
                    · show table k (s, fd) = none
                      simp [table, free]
                    · exact table_setFd used fd (some g)
                    · exact Function.update_idem _ _ _
                    · rw [zero]
                      rfl
                  · refine balanced.ends.keep ?_ rfl
                    show ends ((k.setFile g _).setFile g _) = ends k
                    rw [ends_setFile, ends_setFile, Function.update_idem]
                    exact Function.update_eq_iff.mpr ⟨(ends_idle type).symm, fun _ _ => rfl⟩
                  · refine balanced.inodes.keep ?_ rfl rfl
                    show inodes ((k.setFile g _).setFile g _) = inodes k
                    rw [inodes_setFile, inodes_setFile, Function.update_idem]
                    exact Function.update_eq_iff.mpr ⟨(inodes_idle type).symm, fun _ _ => rfl⟩
                obtain ⟨final, still, others, kept⟩ := ih next (by simpa using used)
                refine ⟨final, still, fun r other => ?_, fun d outside => ?_⟩
                · rw [others r other]
                  simp [Kernel.setFd, Kernel.setProcess, other]
                · rw [List.mem_cons, not_or] at outside
                  rw [kept d outside.2, Kernel.setFd_files _ s s fd d (some g) fun same => outside.1 same.2]
                  rfl
      · rw [if_pos free]
        exact ⟨balanced, used, fun _ _ => rfl, fun _ _ => rfl⟩

/-- Each inherited descriptor adds one reference to its file. -/
theorem shareFiles_balanced {s np : Slot} (fds : List Fd) (nodup : fds.Nodup) {k : Kernel}
    (balanced : Balanced k) (parent : (k.pool s).state = .used) (used : (k.pool np).state = .used)
    (empty : ∀ fd, fd ∈ fds → (k.pool np).files fd = none) : Balanced (shareFiles s np fds k) := by
  induction fds generalizing k with
  | nil => exact balanced
  | cons fd rest ih =>
      have distinct := List.nodup_cons.mp nodup
      rw [shareFiles]
      cases shared : (k.pool s).files fd with
      | none => exact ih distinct.2 balanced parent used fun d member => empty d (List.mem_cons_of_mem fd member)
      | some f =>
          simp only
          have vacant : table k (np, fd) = none := by simp [table, empty fd List.mem_cons_self]
          apply ih distinct.2
          · constructor
            · exact balanced.toHeld.attach vacant (table_setFd used fd (some f)) rfl rfl
            · refine balanced.ends.keep ?_ rfl
              show ends (k.setFile f _) = ends k
              rw [ends_setFile]
              exact Function.update_eq_self f (ends k)
            · refine balanced.inodes.keep ?_ rfl rfl
              show inodes (k.setFile f _) = inodes k
              rw [inodes_setFile]
              exact Function.update_eq_self f (inodes k)
          · simpa using parent
          · simpa using used
          · intro d member
            have other : d ≠ fd := by
              rintro rfl
              exact distinct.1 member
            rw [Kernel.setFd_files _ np np fd d (some f) fun same => other same.2]
            exact empty d (List.mem_cons_of_mem fd member)

end BtbuOs.Files
